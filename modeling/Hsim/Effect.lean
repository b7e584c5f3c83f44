import Hsim.Metrics

/-! What a component does to its surroundings.

A process of the simulator changes its own module and calls out: the ledger, the
log, a socket, a sync object, an event. A process is a function from the
module's state to its new state and the calls it makes on the way, in order. -/
namespace Hsim

/-- A call out of a module. -/
inductive Effect where
  | metrics (call : Metrics.Call)
  | updateStart (layer : String) (device : DeviceType) (cycle : Int)
  | updateEnd (layer : String) (device : DeviceType) (cycle : Int)
  | updateNpuStart (layer : String) (cycle : Int)
  | updateNpuEnd (layer : String) (cycle : Int) (compute : UInt64)
  /-- `nb_transport_fw` with `BEGIN_REQ` on a socket of the module. -/
  | request (t : Payload)
  /-- `nb_transport_bw` with `BEGIN_RESP` on a socket of the module. -/
  | respond (t : Payload) (socket : Nat)
  | dramSignal (id : UInt32)
  | pimSignal (id : UInt32)
  | release (t : Payload)
  | pimComputeDone
  | pimTraceDone
  | npuTraceDone
  /-- `active_dram = 0`. -/
  | stopDram
  /-- An exception that ends the simulation. -/
  | throw (message : String)
  deriving DecidableEq, Repr

/-- One process activation of a module with state `σ`. -/
abbrev Action (σ : Type) := σ → σ × List Effect

namespace Action

variable {σ : Type}

/-- One activation after the other. -/
def seq (f g : Action σ) : Action σ := fun s =>
  let r := f s
  let r' := g r.1
  (r'.1, r.2 ++ r'.2)

@[simp] theorem seq_fst (f g : Action σ) (s : σ) : (seq f g s).1 = (g (f s).1).1 := rfl

@[simp] theorem seq_snd (f g : Action σ) (s : σ) : (seq f g s).2 = (f s).2 ++ (g (f s).1).2 := rfl

end Action

/-- The ledger calls among a module's effects. -/
def metricsCalls (effects : List Effect) : List Metrics.Call :=
  effects.filterMap fun
    | .metrics call => some call
    | _ => none

@[simp] theorem metricsCalls_append (a b : List Effect) :
    metricsCalls (a ++ b) = metricsCalls a ++ metricsCalls b := List.filterMap_append

end Hsim
