import CppWorkspace.Coro.TaskWakeups

/-!
What `run()` does with the coroutines of a program in which every task is
started or awaited once: the order in which they are resumed, and that none is
left when it returns.
-/

namespace CppWorkspace.Coro

open Lib System

variable {κ ρ μ : Type}

end CppWorkspace.Coro
