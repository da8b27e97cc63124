import GambitRecord.Library.Post

/-! # Async functions

What the promise of an async function comes to, after its body has thrown or
returned. A body may return a promise that it did not await: the function's own
promise then follows that one, and no `catch` around the `return` sees it fail.
-/

namespace Library.Promise

universe u

variable {ε : Type*} {α : Type u}

/-- What `return` hands over; a promise is given by what it comes to. -/
inductive Returned (ε : Type*) (α : Type u) where
  | value (a : α)
  | promise (outcome : Except ε α)

abbrev Body (ε : Type*) (α : Type u) := Except ε (Returned ε α)

def returnAwait (outcome : Except ε α) : Body ε α := outcome.map .value

def returnPromise (outcome : Except ε α) : Body ε α := .ok (.promise outcome)

/-- `try` and `catch`: the block is over when it returns. -/
def tryCatch (block : Body ε α) (handler : ε → Body ε α) : Body ε α :=
  match block with
  | .ok returned => .ok returned
  | .error e => handler e

/-- What the function's promise comes to. -/
def settle : Body ε α → Except ε α
  | .ok (.value a) => .ok a
  | .ok (.promise outcome) => outcome
  | .error e => .error e

variable {outcome : Except ε α} {handler : ε → Body ε α}

theorem settle_tryCatch_returnAwait :
    settle (tryCatch (returnAwait outcome) handler) =
      match outcome with
      | .ok a => .ok a
      | .error e => settle (handler e) := by
  cases outcome <;> rfl

theorem settle_tryCatch_returnPromise :
    settle (tryCatch (returnPromise outcome) handler) = outcome := rfl

end Library.Promise
