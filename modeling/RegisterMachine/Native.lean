import RegisterMachine.Table
import RegisterMachine.Value

/-!
Functions of the host that a program can call by name. `σ` is the host's own state.
-/
namespace RegisterMachine

structure Native (σ : Type) where
  /-- The kinds that arguments are read as, in order of declaration. -/
  params : List Kind
  /-- The kind of the result, if one is declared. -/
  returns : Option Kind
  call : List Value → σ → Except Fault (Option Value) × σ

abbrev Natives (σ : Type) := Table String (Native σ)

def Native.conclude (name : String) : Option Kind → Option Value → Except Fault (Option Value)
  | none, _ => .ok none
  | some kind, some value => (value.coerce kind).map some
  | some kind, none =>
    .error (.nativeFailed name ("declared " ++ kind.name ++ " return but produced none"))

/-- Calls the function `name` with arguments that already have the declared kinds. -/
def Natives.invoke {σ : Type} (natives : Natives σ) (name : String) (args : List Value)
    (world : σ) : Except Fault (Option Value) × σ :=
  match natives.find? name with
  | none => (.error (.unknownNative name), world)
  | some native =>
    let (result, world) := native.call args world
    (result >>= Native.conclude name native.returns, world)

end RegisterMachine
