import UserTcp.Proofs.Network.Basic

namespace UserTcp.Exchange

-- A relation between a host, its peer and the parcels of either that holds whoever of the
-- two is the host, and that everything which happens at the host or on its way in leaves
-- alone.
structure Preserved (relation : Host → Host → List Parcel → List Parcel → Prop) : Prop where
  swap : ∀ {host peer ours theirs}, relation host peer ours theirs →
    relation peer host theirs ours
  lose : ∀ {host peer ours theirs fewer}, relation host peer ours theirs → fewer ⊆ theirs →
    relation host peer ours fewer
  perform : ∀ {host peer ours theirs}, relation host peer ours theirs → ∀ call,
    relation (host.perform call).1 peer (ours ++ (host.perform call).2) theirs
  receive : ∀ {host peer ours theirs}, relation host peer ours theirs → ∀ parcel ∈ theirs,
    parcel.timely host = true →
      relation (host.receive parcel).1 peer (ours ++ (host.receive parcel).2) theirs

-- The relation as seen from a side.
def Relates (relation : Host → Host → List Parcel → List Parcel → Prop)
    (exchange : Exchange Host Parcel) (side : Side) : Prop :=
  relation (exchange.party side) (exchange.peer side) (exchange.turnTo side).nearWire
    (exchange.incoming side)

variable {relation : Host → Host → List Parcel → List Parcel → Prop}
  {exchange next : Exchange Host Parcel}

theorem Relates.turn {side : Side} (hrelates : exchange.Relates relation side)
    (hswap : ∀ {host peer ours theirs}, relation host peer ours theirs →
      relation peer host theirs ours) (other : Side) : exchange.Relates relation other := by
  cases side <;> cases other
  · exact hrelates
  · exact hswap hrelates
  · exact hswap hrelates
  · exact hrelates

namespace Preserved

theorem relates (hpreserved : Preserved relation) {side : Side}
    (hrelates : exchange.Relates relation side) (other : Side) :
    exchange.Relates relation other :=
  hrelates.turn hpreserved.swap other

theorem put (side : Side) {host : Host} {sent : List Parcel}
    (hrelates : relation host (exchange.peer side) ((exchange.turnTo side).nearWire ++ sent)
      (exchange.incoming side)) : (exchange.put side host sent).Relates relation side := by
  cases side <;> exact hrelates

theorem drop (hpreserved : Preserved relation) {side : Side}
    (hrelates : exchange.Relates relation side) (index : Nat) :
    (exchange.drop side index).Relates relation side := by
  have hfewer := hpreserved.lose hrelates
    (List.eraseIdx_subset (l := exchange.incoming side) (k := index))
  cases side <;> exact hfewer

theorem deliver (hpreserved : Preserved relation) {side : Side}
    (hrelates : exchange.Relates relation side) (index : Nat) (keep : Bool) (parcel : Parcel)
    (hparcel : (exchange.incoming side)[index]? = some parcel)
    (htimely : parcel.timely (exchange.party side) = true) :
    ((if keep then exchange else exchange.drop side index).receive side parcel).1.Relates relation
      side := by
  have hreceived := hpreserved.receive hrelates parcel (List.mem_of_getElem? hparcel) htimely
  cases keep with
  | true => cases side <;> exact hreceived
  | false =>
      -- it makes no difference to the host when the parcel leaves the wire
      have hfewer := hpreserved.lose hreceived
        (List.eraseIdx_subset (l := exchange.incoming side) (k := index))
      cases side <;> exact hfewer

theorem move (hpreserved : Preserved relation) {side : Side}
    (hrelates : exchange.Relates relation side) (move : Move)
    (hmove : exchange.move? move = some next) : next.Relates relation side := by
  cases move with
  | call on call =>
      obtain rfl := Option.some.inj hmove
      exact hpreserved.relates
        (put on (hpreserved.perform (hpreserved.relates hrelates on) call)) side
  | deliver on index keep =>
      simp only [move?] at hmove
      split at hmove
      · cases hmove
      · rename_i parcel hparcel
        split at hmove
        · rename_i htimely
          simp only [Exchange.deliver, hparcel, Option.map_some, Option.some.injEq] at hmove
          rw [← hmove]
          exact hpreserved.relates (hpreserved.deliver (hpreserved.relates hrelates on) index keep
            parcel hparcel htimely) side
        · cases hmove
  | lose on index =>
      obtain rfl := Option.some.inj hmove
      exact hpreserved.relates (hpreserved.drop (hpreserved.relates hrelates on) index) side

theorem run (hpreserved : Preserved relation) {side : Side}
    (hrelates : exchange.Relates relation side) (moves : List Move)
    (hrun : exchange.run? moves = some next) : next.Relates relation side := by
  induction moves generalizing exchange with
  | nil =>
      obtain rfl := Option.some.inj hrun
      exact hrelates
  | cons move rest ih =>
      simp only [run?] at hrun
      split at hrun
      · cases hrun
      · rename_i after hmove
        exact ih (hpreserved.move hrelates move hmove) hrun

end Preserved

end UserTcp.Exchange
