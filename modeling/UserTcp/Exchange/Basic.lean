namespace UserTcp

-- What a party does with a packet: how it goes on, what it sends, and what it reports.
structure Reply (α β γ : Type) where
  party : α
  sent : List β
  reports : List γ

class Party (α : Type) (β γ : outParam Type) where
  receive : α → β → Reply α β γ

inductive Side where
  | near
  | far
  deriving DecidableEq

-- Two parties, and for each the packets it has sent that are not yet delivered, the
-- oldest first.
structure Exchange (α β : Type) where
  near : α
  far : α
  nearWire : List β
  farWire : List β
  deriving DecidableEq

namespace Exchange

variable {α β γ : Type}

def ofParties (near far : α) : Exchange α β where
  near := near
  far := far
  nearWire := []
  farWire := []

def flip (exchange : Exchange α β) : Exchange α β where
  near := exchange.far
  far := exchange.near
  nearWire := exchange.farWire
  farWire := exchange.nearWire

-- The exchange with the given side as the near one, and back.
def turnTo (exchange : Exchange α β) : Side → Exchange α β
  | .near => exchange
  | .far => exchange.flip

def party (exchange : Exchange α β) (side : Side) : α :=
  (exchange.turnTo side).near

-- A party that has acted takes its place again, and what it sent goes on its wire.
def put (exchange : Exchange α β) (side : Side) (party : α) (sent : List β) :
    Exchange α β :=
  let turned := exchange.turnTo side
  { turned with near := party, nearWire := turned.nearWire ++ sent }.turnTo side

def incoming (exchange : Exchange α β) (side : Side) : List β :=
  (exchange.turnTo side).farWire

def drop (exchange : Exchange α β) (side : Side) (index : Nat) :
    Exchange α β :=
  let turned := exchange.turnTo side
  { turned with farWire := turned.farWire.eraseIdx index }.turnTo side

@[simp] theorem flip_flip (exchange : Exchange α β) : exchange.flip.flip = exchange := rfl

@[simp] theorem turnTo_turnTo (exchange : Exchange α β) (side : Side) :
    (exchange.turnTo side).turnTo side = exchange := by
  cases side <;> rfl

@[simp] theorem party_put (exchange : Exchange α β) (side : Side) (party : α) (sent : List β) :
    (exchange.put side party sent).party side = party := by
  cases side <;> rfl

@[simp] theorem incoming_put (exchange : Exchange α β) (side : Side) (party : α)
    (sent : List β) : (exchange.put side party sent).incoming side = exchange.incoming side := by
  cases side <;> rfl

@[simp] theorem incoming_drop (exchange : Exchange α β) (side : Side) (index : Nat) :
    (exchange.drop side index).incoming side = (exchange.incoming side).eraseIdx index := by
  cases side <;> rfl

variable [Party α β γ]

-- A side receives a packet that is no longer on the wire.
def receive (exchange : Exchange α β) (side : Side) (packet : β) :
    Exchange α β × Reply α β γ :=
  let reply := Party.receive (exchange.party side) packet
  (exchange.put side reply.party reply.sent, reply)

-- Delivers the packet at a place in the queue, out of order perhaps. A kept packet can be
-- delivered once more.
def deliver (exchange : Exchange α β) (side : Side) (index : Nat) (keep : Bool) :
    Option (Exchange α β × Reply α β γ) :=
  match (exchange.incoming side)[index]? with
  | none => none
  | some packet =>
      some ((if keep then exchange else exchange.drop side index).receive side packet)

def receiveAll (exchange : Exchange α β) (side : Side) :
    List β → Exchange α β × List γ
  | [] => (exchange, [])
  | packet :: rest =>
      let received := exchange.receive side packet
      let others := received.1.receiveAll side rest
      (others.1, received.2.reports ++ others.2)

def drain (exchange : Exchange α β) (side : Side) :
    Exchange α β × List γ :=
  let turned := exchange.turnTo side
  let emptied := { turned with farWire := [] }.turnTo side
  emptied.receiveAll side (exchange.incoming side)

structure Settlement (α β γ : Type) where
  exchange : Exchange α β
  delivered : Nat
  rounds : Nat
  reports : List γ

-- Rounds of deliveries until both wires are empty, at most `limit` of them. In a round the
-- far side gets what the near side has sent, then the near side what the far side has
-- sent, answers of this round included.
def settle (exchange : Exchange α β) : Nat → Settlement α β γ
  | 0 => ⟨exchange, 0, 0, []⟩
  | limit + 1 =>
      if exchange.nearWire.isEmpty && exchange.farWire.isEmpty then ⟨exchange, 0, 0, []⟩
      else
        let outward := exchange.drain .far
        let inward := outward.1.drain .near
        let others := inward.1.settle limit
        { others with
          delivered := exchange.nearWire.length + outward.1.farWire.length + others.delivered
          rounds := others.rounds + 1
          reports := outward.2 ++ inward.2 ++ others.reports }

end Exchange

end UserTcp
