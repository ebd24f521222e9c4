import QueueBench.Event

/-!
# Logging

Steps that log events as they go. The log of a sequence of steps is the logs of the steps, one
behind the other, and no step can see what is logged before it.
-/
namespace QueueBench

structure Logged (α : Type) where
  value : α
  events : List Event

namespace Logged

instance : Monad Logged where
  pure a := ⟨a, []⟩
  bind x f := ⟨(f x.value).value, x.events ++ (f x.value).events⟩

def log (e : Event) : Logged Unit := ⟨(), [e]⟩

end Logged

def LoggedT (m : Type → Type) (α : Type) : Type := m (Logged α)

namespace LoggedT

variable {m : Type → Type} [Monad m] {α : Type}

def run (x : LoggedT m α) : m (Logged α) := x

instance : Monad (LoggedT m) where
  pure a := (pure (pure a) : m (Logged _))
  bind x f := (do
    let a ← x.run
    let b ← (f a.value).run
    return ⟨b.value, a.events ++ b.events⟩ : m (Logged _))

def ofLogged (x : Logged α) : LoggedT m α := (pure x : m (Logged α))

def lift (x : m α) : LoggedT m α := (do return pure (← x) : m (Logged α))

instance : MonadLift Logged (LoggedT m) := ⟨ofLogged⟩

instance : MonadLift m (LoggedT m) := ⟨lift⟩

end LoggedT

end QueueBench
