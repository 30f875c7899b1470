import LsmEngine.Engine.Open

/-!
# Runs of user calls

A run starts from an opened engine and applies `put`, `update` and `delete` calls one after
another, each with the clock readings and the table id it draws (`run`); a run of requests
may also `clear` the engine and go on with the one it rebuilds (`serve`).  A call that returns
`Err` leaves the engine as it was: the only error the write path returns is the one of the
`get` that `delete` makes before it changes anything (`delete_eq_err`).  A panic ends the
run.
-/

namespace LsmEngine

/-- A user call, with the clock readings and the table id it draws. -/
inductive Call where
  | put (key value : Key) (createdAt headNow : Nat) (tableId : TableId)
  | update (key value : Key) (createdAt headNow : Nat) (tableId : TableId)
  | delete (key : Key) (createdAt headNow : Nat) (tableId : TableId)

namespace StorageEngine

variable {F : Type} [BloomFilter F]

/-- One call on the engine. -/
def apply (s : StorageEngine F) : Call → Outcome (StorageEngine F)
  | .put key value createdAt headNow tableId => s.put key value createdAt headNow tableId
  | .update key value createdAt headNow tableId => s.update key value createdAt headNow tableId
  | .delete key createdAt headNow tableId => s.delete key createdAt headNow tableId

/-- The calls one after another: an `Err` leaves the engine as it was, a panic ends the
run. -/
def run (s : StorageEngine F) (cs : List Call) : Outcome (StorageEngine F) :=
  Outcome.steps apply s cs

/-- A request of a run that may also rebuild the engine: a call, or `clear` with the clock
reading and the table ids its reopening draws. -/
inductive Request where
  | call (c : Call)
  | clear (createdAt : Nat) (draw : Nat → TableId)

/-- One request on the engine.  The engine `clear` returns is the one the run goes on
with. -/
def handle (s : StorageEngine F) : Request → Outcome (StorageEngine F)
  | .call c => s.apply c
  | .clear createdAt draw => s.clear createdAt draw

/-- The requests one after another, as in `run`. -/
def serve (s : StorageEngine F) (rs : List Request) : Outcome (StorageEngine F) :=
  Outcome.steps handle s rs

/-- `clear` never returns `Err`: the directory it reopens is empty, so the engine starts
fresh, and a fresh start only panics. -/
theorem clear_noErr (s : StorageEngine F) (createdAt : Nat) (draw : Nat → TableId) :
    (s.clear createdAt draw).NoErr :=
  (InMemoryTable.withSpecifiedCapacityAndRate_noErr _ _ _ _).bind fun _ => Outcome.noErr_ok _

/-- The engine a fresh start on an empty directory opens. -/
def openEmpty (sizeUnit : SizeUnit) (capacity : Nat) (config : Config) (createdAt : Nat) :
    Outcome (StorageEngine F) :=
  withCapacityAndRate ⟨[], some [], []⟩ sizeUnit capacity config createdAt fun _ => []

end StorageEngine

end LsmEngine
