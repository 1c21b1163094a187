import GroupingSets.Batch
import GroupingSets.Event
import GroupingSets.Explain
import GroupingSets.Settings

/-! Operators produce rows batch by batch. A caller starts an operator, pulls batches until it is exhausted, and closes
it. An operator is a state with these calls; a call that fails still leaves a state behind, and so does the batch it
was writing to. -/
namespace GroupingSets

/-! Signals that stop a query. Every holder of a signal sees it once anyone has raised it. -/

/-- Names a signal. Copies of a token name the same signal. -/
structure CancelToken where
  signal : Nat
  deriving DecidableEq, Repr

structure Signals where
  raised : List Bool
  deriving DecidableEq, Repr

namespace Signals

instance : EmptyCollection Signals := ⟨⟨[]⟩⟩

instance : Inhabited Signals := ⟨∅⟩

def newToken (s : Signals) : CancelToken × Signals := (⟨s.raised.length⟩, ⟨s.raised ++ [false]⟩)

def isCancelled (s : Signals) (t : CancelToken) : Bool := s.raised.getD t.signal false

def cancel (s : Signals) (t : CancelToken) : Signals := ⟨s.raised.set t.signal true⟩

def check (s : Signals) (t : CancelToken) : Except Error Unit :=
  if s.isCancelled t then .error .cancelled else .ok ()

end Signals

/-! What a call is given. -/

structure Context where
  settings : Settings
  tables : LayoutTable
  token : CancelToken
  signals : Signals
  deriving DecidableEq

namespace Context

def new (settings : Settings) (tables : LayoutTable) : Context :=
  let (token, signals) := (∅ : Signals).newToken
  ⟨settings, tables, token, signals⟩

def check (c : Context) : Except Error Unit := c.signals.check c.token

def cancel (c : Context) : Context := { c with signals := c.signals.cancel c.token }

def newBatch (c : Context) (layout : Layout) : Batch :=
  Batch.new layout c.settings.batchSize.toNat (c.settings.arenaLimit.map (·.toNat))

end Context

/-! Operators. -/

structure Reply (σ : Type) where
  result : Except Failure Unit
  state : σ
  events : List Event := []

structure Pulled (σ : Type) where
  result : Except Failure Progress
  state : σ
  /-- The batch that was to be filled. -/
  output : Batch
  events : List Event := []

class Operator (σ : Type) where
  name : σ → String
  /-- The layout of the rows that pulls write. -/
  outputLayout : σ → Layout
  /-- Prepare for pulls. -/
  start : Context → σ → Reply σ
  /-- Write the next rows into an empty batch of the output layout. Rows may come together with the
  answer that no batch follows. -/
  pull : Context → σ → Batch → Pulled σ
  /-- Give up what the operator holds. Closing it again has no effect. -/
  close : Context → σ → Reply σ
  /-- Describe the operator, more fully if asked to. -/
  explain : Bool → σ → Explain

end GroupingSets
