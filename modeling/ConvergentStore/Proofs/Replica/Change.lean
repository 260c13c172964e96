import ConvergentStore.Proofs.Number.Thousandth
import ConvergentStore.Replica.Exchange

/-!
# Changes and their operations

What a change asks for, written out for each family: the operation that has the
arguments of the change, a write also the whole second of the clock, and the
words that route the operation (`Change.Asks`). A change is made into what it
asks for (`asks_toOperation`).
-/

namespace ConvergentStore

/-! ## Whole seconds -/

/-- Whether a number is the whole second of a clock that shows milliseconds. -/
structure Operation.IsSecondOf (second clock : Binary64) : Prop where
  floor : second = (clock / 1000).floor
  /-- Of every safe whole number of milliseconds it is the exact second. -/
  exact : ∀ millis : Int, clock.toInt? = some millis → millis.natAbs ≤ Binary64.largestSafe →
    second.toInt? = some (millis / 1000)

theorem Operation.isSecondOf_timestampAt (clock : Binary64) :
    IsSecondOf (timestampAt clock) clock where
  floor := rfl
  exact := fun _ shows safe => Binary64.toInt?_floor_thousandth shows safe

/-! ## Operations -/

/-- The operation that a change asks for at a time of the clock, and the words that route it. -/
inductive Change.Asks (clock : Binary64) : Change → Operation → List String → Prop
  | update {key value : String} {second : Binary64} (stamped : Operation.IsSecondOf second clock) :
      Asks clock (.update key value) (.registerSet key value second) ["c", "crdt", "lww"]
  | increment {key : String} {amount : Binary64} :
      Asks clock (.increment key amount) (.counterIncrement key amount) ["c", "crdt", "gcounter"]
  | add {key element : String} :
      Asks clock (.add key element) (.setAdd key element) ["c", "crdt", "gset"]

/-- A change is made into the operation that it asks for. -/
theorem Change.asks_toOperation (clock : Binary64) (change : Change) :
    change.Asks clock (change.toOperation clock) (change.toOperation clock).routingTag := by
  cases change with
  | update key value => exact .update (Operation.isSecondOf_timestampAt clock)
  | increment key amount => exact .increment
  | add key element => exact .add

end ConvergentStore
