import UserTcp.Millis

namespace UserTcp

-- The retransmission alarm. It reads no clock: its owner tells it how much time has
-- gone by. While it runs it adds this up, and it is due once the sum reaches the timeout.
structure Alarm where
  initialTimeout : Millis
  timeout : Millis
  elapsed : Millis
  running : Bool
  deriving DecidableEq

namespace Alarm

def ofTimeout (initialTimeout : Millis) : Alarm where
  initialTimeout := initialTimeout
  timeout := initialTimeout
  elapsed := 0
  running := false

-- Runs from zero, also when it was running.
def start (alarm : Alarm) : Alarm :=
  { alarm with running := true, elapsed := 0 }

def stop (alarm : Alarm) : Alarm :=
  { alarm with running := false, elapsed := 0 }

def advance (alarm : Alarm) (time : Millis) : Alarm :=
  if alarm.running then { alarm with elapsed := alarm.elapsed.addCapped time } else alarm

def due (alarm : Alarm) : Bool :=
  alarm.running && decide (alarm.timeout ≤ alarm.elapsed)

def backOff (alarm : Alarm) : Alarm :=
  { alarm with timeout := alarm.timeout.doubleCapped }

def resetTimeout (alarm : Alarm) : Alarm :=
  { alarm with timeout := alarm.initialTimeout }

end Alarm

end UserTcp
