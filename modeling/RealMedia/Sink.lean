import RealMedia.Note
import RealMedia.Packet
import RealMedia.StreamHeader

/-! The boundary to a muxer: the calls it receives, and a receiver that keeps them. -/

namespace RealMedia

inductive SinkCall
  /-- The headers of all streams, before any packet. -/
  | headers (hs : List StreamHeader)
  | packet (p : Packet)
  /-- The header of a stream has changed after it was handed over. -/
  | changed (h : StreamHeader)
  /-- No stream has more packets. -/
  | flush

/-- What a step of reading lets out: calls on the sink and diagnostics. -/
inductive Output
  | call (c : SinkCall)
  | note (n : Note)

abbrev Outputs := List Output

variable {a b : Outputs}

def Output.call? : Output → Option SinkCall
  | call c => some c
  | note _ => none

def Output.note? : Output → Option Note
  | call _ => none
  | note n => some n

def calls (out : Outputs) : List SinkCall := out.filterMap Output.call?

def notes (out : Outputs) : List Note := out.filterMap Output.note?

@[simp] theorem calls_append : calls (a ++ b) = calls a ++ calls b := List.filterMap_append

@[simp] theorem notes_append : notes (a ++ b) = notes a ++ notes b := List.filterMap_append

def SinkCall.packet? : SinkCall → Option Packet
  | packet p => some p
  | _ => none

/-- A sink that keeps everything it is handed, in order of arrival. -/
structure Inbox where
  packets : List Packet := []
  headers : List StreamHeader := []
  /-- The headers handed over as changed. -/
  updates : List StreamHeader := []
  flushes : Nat := 0

namespace Inbox

/-- Put a header in the place of the first one with its id. -/
def replace (h : StreamHeader) : List StreamHeader → List StreamHeader
  | [] => []
  | x :: xs => if x.id = h.id then h :: xs else x :: replace h xs

def receive (q : Inbox) : SinkCall → Inbox
  | .headers hs => { q with headers := hs }
  | .packet p => { q with packets := q.packets ++ [p] }
  | .changed h => { q with headers := replace h q.headers, updates := q.updates ++ [h] }
  | .flush => { q with flushes := q.flushes + 1 }

def receiveAll (q : Inbox) (cs : List SinkCall) : Inbox := cs.foldl receive q

/-- Take the oldest packet. -/
def pop (q : Inbox) : Option Packet × Inbox :=
  match q.packets with
  | [] => (none, q)
  | p :: ps => (some p, { q with packets := ps })

def ofStream (q : Inbox) (id : Nat) : List Packet := q.packets.filter (·.stream = id)

end Inbox

end RealMedia
