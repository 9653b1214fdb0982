import UserTcp.Proofs.Reassembly.Insert

namespace UserTcp.Reassembly

-- A piece of a stream has at each of its indices the byte that the stream has there.
def Piece (piece : Run) (stream : List UInt8) : Prop :=
  ∀ index byte, piece.byteAt? index = some byte → stream[index]? = some byte

-- The index is in: its byte has gone out or is held.
def Holds (reassembly : Reassembly) (index : Nat) : Prop :=
  index < reassembly.expected ∨
    ∃ run ∈ reassembly.held.runs, run.start ≤ index ∧ index < run.stop

-- What has gone out is the front of the stream, and what is held are pieces of it.
structure Assembles (reassembly : Reassembly) (stream : List UInt8) : Prop where
  intact : reassembly.Intact (stream.take reassembly.expected)
  piece : ∀ run ∈ reassembly.held.runs, Piece run stream

theorem assembles_ofOutput (capacity : Nat) (stream : List UInt8) :
    (ofOutput (Pipe.empty capacity)).Assembles stream where
  intact := intact_ofOutput capacity
  piece := fun _ hmem => absurd hmem List.not_mem_nil

theorem holds_iff_isSome {reassembly : Reassembly} {history : List UInt8}
    (hintact : reassembly.Intact history) (index : Nat) :
    reassembly.Holds index ↔ (contentAt? history reassembly.held.runs index).isSome := by
  rw [isSome_contentAt?, Holds, hintact.expected_eq]

theorem not_holds_expected {reassembly : Reassembly} {history : List UInt8}
    (hintact : reassembly.Intact history) : ¬ reassembly.Holds reassembly.expected := by
  rintro (hlt | ⟨run, hmem, hle, -⟩)
  · omega
  · have hge := hintact.expected_le run hmem
    exact hintact.start_ne run hmem (by omega)

theorem holds_insert {reassembly : Reassembly} {history : List UInt8}
    (hintact : reassembly.Intact history) (piece : Run) (last : Bool)
    (hadmits : reassembly.admits piece = true) (index : Nat) :
    (reassembly.insert piece last).Holds index ↔ reassembly.Holds index ∨
      piece.start ≤ index ∧ index < piece.stop ∧ index < reassembly.limit := by
  obtain ⟨longer, hlonger, hcontent⟩ := hintact.insert piece last hadmits
  rw [holds_iff_isSome hlonger, hcontent, isSome_contentAt?_runsWith hintact.toStored,
    holds_iff_isSome hintact]

-- What has gone out does not come back.
theorem Intact.expected_le_insert {reassembly : Reassembly} {history : List UInt8}
    (hintact : reassembly.Intact history) (piece : Run) (last : Bool) :
    reassembly.expected ≤ (reassembly.insert piece last).expected := by
  cases hadmits : reassembly.admits piece with
  | false =>
      exact Nat.le_of_eq (congrArg expected
        (insert_of_not_admits reassembly piece last hadmits).symm)
  | true =>
      obtain ⟨longer, hlonger, -⟩ := hintact.insert piece last hadmits
      have hholds := holds_insert hintact piece last hadmits
        (reassembly.insert piece last).expected
      by_contra hlt
      exact not_holds_expected hlonger (hholds.mpr (.inl (.inl (Nat.lt_of_not_ge hlt))))

-- A piece that fits and leaves no gap before it goes out to its end.
theorem stop_le_expected_insert {reassembly : Reassembly} {history : List UInt8}
    (hintact : reassembly.Intact history) (piece : Run) (last : Bool)
    (hadmits : reassembly.admits piece = true) (hstart : piece.start ≤ reassembly.expected)
    (hstop : piece.stop ≤ reassembly.limit) :
    piece.stop ≤ (reassembly.insert piece last).expected := by
  obtain ⟨longer, hlonger, -⟩ := hintact.insert piece last hadmits
  have hnext := not_holds_expected hlonger
  rw [holds_insert hintact piece last hadmits] at hnext
  -- the first index that is still missing is none that was there, and none of the piece
  have hbefore := hintact.expected_le_insert piece last
  by_contra hlt
  exact hnext (.inr ⟨by omega, by omega, by omega⟩)

-- The end where bytes come out only makes room.
theorem Intact.apply {reassembly : Reassembly} {history : List UInt8}
    (hintact : reassembly.Intact history) (op : Pipe.Op) (hop : op.feeds = false) :
    { reassembly with output := (reassembly.output.apply op).2 }.Intact history := by
  rcases reassembly.output.apply_of_not_feeds op hop with ⟨count, happly, -⟩ | ⟨happly, -⟩
  · rw [happly]
    have hcarries := hintact.output.pop count
    have hlimit : reassembly.limit ≤
        reassembly.output.pushed + (reassembly.output.pop count).free := by
      simp only [limit, expected, Pipe.free, Pipe.buffered, Pipe.pop, List.length_drop]
      omega
    refine ⟨⟨hcarries, hintact.normal, hintact.count_eq, hintact.expected_le, ?_⟩,
      hintact.start_ne⟩
    intro run hmem
    exact Nat.le_trans (hintact.stop_le run hmem) hlimit
  · rw [happly]
    exact ⟨⟨hintact.output.fail, hintact.normal, hintact.count_eq, hintact.expected_le,
      hintact.stop_le⟩, hintact.start_ne⟩

namespace Assembles

variable {reassembly : Reassembly} {stream : List UInt8}

theorem expected_le (hassembles : reassembly.Assembles stream) :
    reassembly.expected ≤ stream.length := by
  have hlen := hassembles.intact.expected_eq
  rw [List.length_take] at hlen
  omega

theorem take_popped (hassembles : reassembly.Assembles stream) :
    (stream.take reassembly.expected).take reassembly.output.popped =
      stream.take reassembly.output.popped := by
  have hle := hassembles.intact.output.popped_le
  rw [List.length_take] at hle
  rw [List.take_take, Nat.min_eq_left (by omega)]

-- What readers have taken out, followed by what they can still take, is all that has gone out.
theorem take_append_buffer (hassembles : reassembly.Assembles stream) :
    stream.take reassembly.output.popped ++ reassembly.output.buffer =
      stream.take reassembly.expected := by
  have hall := hassembles.intact.output.take_append_buffer
  rwa [hassembles.take_popped] at hall

theorem content_eq_some (hassembles : reassembly.Assembles stream) (index : Nat) (byte : UInt8)
    (hbyte : contentAt? (stream.take reassembly.expected) reassembly.held.runs index = some byte) :
    stream[index]? = some byte := by
  rw [contentAt?, Option.or_eq_some_iff] at hbyte
  rcases hbyte with hfront | ⟨-, hheld⟩
  · rw [List.getElem?_take] at hfront
    split at hfront
    · exact hfront
    · cases hfront
  · obtain ⟨run, hmem, hrun⟩ := Held.exists_of_byteAt?_eq_some _ index byte hheld
    exact hassembles.piece run hmem index byte hrun

-- A piece counts as far as it reaches past what has gone out. What it says of indices before
-- is not looked at.
theorem insert_beyond (hassembles : reassembly.Assembles stream) (piece : Run)
    (hpiece : ∀ index byte, reassembly.expected ≤ index → piece.byteAt? index = some byte →
      stream[index]? = some byte) (last : Bool) :
    (reassembly.insert piece last).Assembles stream := by
  cases hadmits : reassembly.admits piece with
  | false =>
      rw [insert_of_not_admits reassembly piece last hadmits]
      exact hassembles
  | true =>
      obtain ⟨longer, hintact, hcontent⟩ := hassembles.intact.insert piece last hadmits
      have hagrees : ∀ index byte, contentAt? longer (reassembly.insert piece last).held.runs
          index = some byte → stream[index]? = some byte := by
        intro index byte hbyte
        rw [hcontent] at hbyte
        rcases contentAt?_runsWith_eq_some hassembles.intact.toStored piece index byte hbyte
          with hold | ⟨hge, hnew⟩
        · exact hassembles.content_eq_some index byte hold
        · exact hpiece index byte hge hnew
      have hfront : longer <+: stream := by
        rw [List.prefix_iff_getElem?]
        intro index hlt
        apply hagrees
        rw [contentAt?, List.getElem?_eq_getElem hlt, Option.some_or]
      have hlonger : longer = stream.take (reassembly.insert piece last).expected := by
        rw [hintact.expected_eq]
        exact List.prefix_iff_eq_take.mp hfront
      refine ⟨hlonger ▸ hintact, ?_⟩
      intro run hmem index byte hbyte
      apply hagrees
      have hheld := (Held.byteAt?_eq_some _ hintact.normal index byte).mpr ⟨run, hmem, hbyte⟩
      -- a held run lies behind all that has gone out
      have hin := (run.isSome_byteAt? index).mp (by rw [hbyte]; rfl)
      have hle := hintact.expected_le run hmem
      have hlen := hintact.expected_eq
      have hnone : longer[index]? = none := List.getElem?_eq_none (by omega)
      rw [contentAt?, hnone, Option.none_or, hheld]

protected theorem insert (hassembles : reassembly.Assembles stream) (piece : Run)
    (hpiece : Piece piece stream) (last : Bool) :
    (reassembly.insert piece last).Assembles stream :=
  hassembles.insert_beyond piece (fun index byte _ => hpiece index byte) last

protected theorem apply (hassembles : reassembly.Assembles stream) (op : Pipe.Op)
    (hop : op.feeds = false) :
    { reassembly with output := (reassembly.output.apply op).2 }.Assembles stream := by
  have hintact := hassembles.intact.apply op hop
  refine ⟨?_, hassembles.piece⟩
  change Intact _ (stream.take (reassembly.output.apply op).2.pushed)
  rw [Pipe.pushed_apply _ op hop]
  exact hintact

theorem take_popped_apply (hassembles : reassembly.Assembles stream) (op : Pipe.Op)
    (hop : op.feeds = false) :
    stream.take (reassembly.output.apply op).2.popped =
      stream.take reassembly.output.popped ++ op.removed reassembly.output := by
  have hafter := (hassembles.apply op hop).take_popped
  have hpushed : expected { reassembly with output := (reassembly.output.apply op).2 } =
      reassembly.expected := Pipe.pushed_apply _ op hop
  rw [hpushed] at hafter
  rw [← hafter, ← hassembles.take_popped]
  exact Pipe.take_popped_apply hassembles.intact.output op hop

-- Nothing has to change when the stream goes on behind its end.
theorem grow (hassembles : reassembly.Assembles stream) (more : List UInt8) :
    reassembly.Assembles (stream ++ more) where
  intact := by
    rw [List.take_append_of_le_length hassembles.expected_le]
    exact hassembles.intact
  piece := by
    intro run hmem index byte hbyte
    have hat := hassembles.piece run hmem index byte hbyte
    obtain ⟨hlt, -⟩ := List.getElem?_eq_some_iff.mp hat
    rw [List.getElem?_append_left hlt, hat]

-- A last piece that goes out to its end closes the output.
theorem closed_insert_of_last (hassembles : reassembly.Assembles stream) (piece : Run)
    (hpiece : Piece piece stream) (hadmits : reassembly.admits piece = true)
    (hstart : piece.start ≤ reassembly.expected) (hstop : piece.stop ≤ reassembly.limit)
    (hlast : piece.stop = stream.length) : (reassembly.insert piece true).output.closed = true := by
  have hlower := stop_le_expected_insert hassembles.intact piece true hadmits hstart hstop
  have hupper := (hassembles.insert piece hpiece true).expected_le
  have hexpected : (reassembly.insert piece true).expected = piece.stop := by omega
  rw [closed_insert _ _ _ hadmits, finalIndex_insert _ _ _ hadmits, hexpected]
  simp only [Bool.true_and, decide_eq_true_eq, hstop, ↓reduceIte]

end Assembles

end UserTcp.Reassembly
