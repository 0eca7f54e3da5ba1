import Mathlib.Data.Multiset.AddSub
import PyQgisServer.Zmq.Client
import PyQgisServer.Zmq.Pool

namespace Zmq

open Links

-- fetched records every request message a fetch has sent
structure Network where
  pool : Pool
  client : Frame → AsyncClient
  clientUp : Links Frame (Frame × RequestMessage)
  clientDown : Links Frame (List Frame)
  fetched : List (Frame × Frame × RequestMessage)

inductive NetAct where
  | fetch (c m : Frame) (r : RequestMessage)
  | register (c m : Frame)
  | poll (c : Frame)
  | client (c : Frame) (a : ClientAct)
  | frontend (c : Frame) (tm : ℚ) (ok : Bool)
  | pool (a : Act)
  | loseClientUp (i : ℕ)
  | loseClientDown (i : ℕ)

def Event.toClient : Event → Option (Frame × List Frame)
  | .forward c m d true => some (c, [m, d])
  | .reject c m _ _ true => some (c, [m, err, busy])
  | _ => none

namespace Network

def init : Network where
  pool := .init
  client := fun _ => .init
  clientUp := []
  clientDown := []
  fetched := []

def setClient (s : Network) (c : Frame) (f : AsyncClient → AsyncClient) : Network :=
  { s with client := Function.update s.client c (f (s.client c)) }

def advance (s : Network) (r : Pool × List Event) : Network :=
  { s with pool := r.1, clientDown := s.clientDown ++ r.2.filterMap Event.toClient }

def step (maxqueue timeout : ℤ) (s : Network) : NetAct → Option Network
  | .fetch c m r =>
    if (c, m) ∈ s.fetched.map fun x => (x.1, x.2.1) then none
    else some { s with clientUp := s.clientUp ++ [(c, m, r)], fetched := s.fetched ++ [(c, m, r)] }
  | .register c m =>
    match (s.client c).responses m with
    | none => some (s.setClient c fun k => k.register m)
    | some _ => none
  | .poll c =>
    match Links.recv c s.clientDown with
    | some (msg, clientDown) => some { s.setClient c fun k => k.poll msg with clientDown }
    | none => none
  | .client c a => some (s.setClient c fun k => k.act a)
  | .frontend c tm ok =>
    match Links.recv c s.clientUp with
    | some ((m, r), clientUp) =>
      (s.pool.perform maxqueue timeout (.frontend c m r tm ok)).map { s with clientUp }.advance
    | none => none
  | .pool a =>
    if a.fromClient then none else (s.pool.perform maxqueue timeout a).map s.advance
  | .loseClientUp i => some { s with clientUp := s.clientUp.eraseIdx i }
  | .loseClientDown i => some { s with clientDown := s.clientDown.eraseIdx i }

end Network

end Zmq
